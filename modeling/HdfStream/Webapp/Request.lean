/-
# Requests

The model of `HDFStreamServlet.java` and of the constructor in `HDFStreamRequest.java`: from the
parameters of a GET or a POST request to the request that is answered, or to the error that is
sent instead.  The answer itself and the limit on concurrent requests are not part of it.

The body of a POST request is decoded entry by entry, and an exception of the decoder becomes an
error with its message.
-/
import HdfStream.Virtual.Model
import HdfStream.Webapp.SliceInfo

namespace HdfStream.Webapp

open Java Msgpack Virtual

/-! ## 1. The constructor -/

/-- `SC_BAD_REQUEST`. -/
def scBadRequest : Nat := 400
/-- `SC_NOT_FOUND`. -/
def scNotFound : Nat := 404
/-- `SC_UNSUPPORTED_MEDIA_TYPE`. -/
def scUnsupportedMediaType : Nat := 415
/-- `SC_INTERNAL_SERVER_ERROR`. -/
def scInternalServerError : Nat := 500

structure HDFStreamRequestException where
  statusCode : Nat
  errorMessage : JString
deriving DecidableEq

structure HDFStreamRequest where
  file : Option VirtualFile
  directory : Option VirtualDirectory
  object : Option JString
  maxDepth : Int
  dataSizeLimit : Int
  sliceInfo : Option SliceInfo

/-- `isPrintableAscii`. -/
def isPrintableAscii (s : JString) : Bool := s.all fun c => !(c.toNat < 32 || 127 < c.toNat)

/-- `(max_hdf5_name_length > 0) && (name.length() > max_hdf5_name_length)`. -/
def tooLong (maxHdf5NameLength : Int) (name : JString) : Prop :=
  0 < maxHdf5NameLength ∧ maxHdf5NameLength < charLength name

instance (maxHdf5NameLength : Int) (name : JString) : Decidable (tooLong maxHdf5NameLength name) :=
  inferInstanceAs (Decidable (_ ∧ _))

/-- The checks of the path and of the two limits. -/
def checkLimits (path : Option JString) (maxDepth dataSizeLimit maxHdf5NameLength : Int) :
    Except HDFStreamRequestException Unit :=
  if ∃ p ∈ path, tooLong maxHdf5NameLength p then
    .error ⟨scBadRequest, lit "Path is too long: " ++ path.getD []⟩
  else if maxDepth < 0 then .error ⟨scBadRequest, lit "max_depth must not be negative"⟩
  else if dataSizeLimit < 0 then
    .error ⟨scBadRequest, lit "data_size_limit must not be negative"⟩
  else .ok ()

/-- The file and the directory of a path; without a path it is the root directory. -/
def lookUp (virtualDirectory : VirtualDirectory) (inRole : JString → Bool) (path : Option JString) :
    Except HDFStreamRequestException (Option VirtualFile × Option VirtualDirectory) :=
  if (path.getD []).length = 0 then .ok (none, some virtualDirectory)
  else
    match resolvePath (path.getD []) inRole virtualDirectory with
    | .error _ => .error ⟨scNotFound, lit "Invalid path specified: " ++ path.getD []⟩
    | .ok pathInfo => .ok (pathInfo.file, pathInfo.directory)

/-- The checks of the object name and of the slice. -/
def checkObject (object : Option JString) (slice : Option SliceInfo) (maxHdf5NameLength : Int) :
    Except HDFStreamRequestException Unit :=
  if ∃ o ∈ object, tooLong maxHdf5NameLength o then
    .error ⟨scBadRequest, lit "Object name is too long"⟩
  else if ∃ o ∈ object, isPrintableAscii o = false then
    .error ⟨scBadRequest, lit "Object names must contain printable ascii characters only"⟩
  else if slice.isSome ∧ object = none then
    .error ⟨scBadRequest, lit "Can't specify slicing parameters without object name"⟩
  else .ok ()

/-- `new HDFStreamRequest(…)`. -/
def HDFStreamRequest.new (virtualDirectory : VirtualDirectory) (inRole : JString → Bool)
    (path object : Option JString) (maxDepth dataSizeLimit : Int) (slice : Option SliceInfo)
    (maxHdf5NameLength : Int) : Except HDFStreamRequestException HDFStreamRequest := do
  checkLimits path maxDepth dataSizeLimit maxHdf5NameLength
  let (file, directory) ← lookUp virtualDirectory inRole path
  checkObject object slice maxHdf5NameLength
  .ok
    { file := file, directory := directory, object := object, maxDepth := maxDepth
      dataSizeLimit := dataSizeLimit, sliceInfo := slice }

/-! ## 2. The servlet -/

/-- How a request ends before its body is sent. -/
inductive Refusal where
  /-- `sendMsgpackError`. -/
  | sent (statusCode : Nat) (message : JString)
  /-- An exception that leaves the servlet. -/
  | thrown (e : Thrown)

/-- The status of the response; for an exception the container sends it. -/
def Refusal.statusCode : Refusal → Nat
  | .sent statusCode _ => statusCode
  | .thrown _ => scInternalServerError

/-- What the servlet finds in its context, and in the request about the user. -/
structure ServletContext where
  virtualDirectory : VirtualDirectory
  inRole : JString → Bool
  maxHdf5NameLength : Int
  /-- What the decoder of the Java library makes of bytes that are not UTF-8. -/
  malformed : Bytes → JString
  /-- `getMessage` of the exceptions that are not thrown by the application. -/
  libraryMessage : Thrown → JString

/-- The part of `getPathInfo` after the slash it starts with. -/
def pathOf (pathInfo : Option JString) : Option JString := pathInfo.map (List.drop 1)

/-- The end of both methods. -/
def ServletContext.construct (context : ServletContext) (pathInfo object : Option JString)
    (maxDepth dataSizeLimit : Int) (slice : Option SliceInfo) : Except Refusal HDFStreamRequest :=
  match HDFStreamRequest.new context.virtualDirectory context.inRole (pathOf pathInfo) object
    maxDepth
    dataSizeLimit slice context.maxHdf5NameLength with
  | .ok hreq => .ok hreq
  | .error e => .error (.sent e.statusCode e.errorMessage)

/-- A GET request, with the strings that `getParameter` returns. -/
structure GetRequest where
  pathInfo : Option JString
  object : Option JString
  maxDepth : Option JString
  dataSizeLimit : Option JString
  slice : Option JString

/-- `Integer.valueOf` of a parameter, or its default. -/
def intParameter (value : Option JString) (default : Int) (message : String) :
    Except Refusal Int :=
  match value with
  | none => .ok default
  | some s =>
    match valueOfInt s with
    | .ok n => .ok n.toInt
    | .error _ => .error (.sent scBadRequest (lit message))

/-- The `slice` parameter. -/
def sliceParameter : Option JString → Except Refusal (Option SliceInfo)
  | none => .ok none
  | some s =>
    match SliceInfo.parse s with
    | .ok slice => .ok (some slice)
    | .error (.invalidSlice message) => .error (.sent scBadRequest message)
    | .error e => .error (.thrown e)

/-- `Integer.MAX_VALUE`. -/
def intMax : Int := 2147483647

/-- `doHeadOrGet`, up to the response. -/
def ServletContext.doHeadOrGet (context : ServletContext) (request : GetRequest) :
    Except Refusal HDFStreamRequest := do
  let maxDepth ← intParameter request.maxDepth 0
    "Unable to interpret max_depth parameter as integer"
  let dataSizeLimit ← intParameter request.dataSizeLimit intMax
    "Unable to interpret data_size_limit parameter as integer"
  let slice ← sliceParameter request.slice
  context.construct request.pathInfo request.object maxDepth dataSizeLimit slice

/-- A POST request. -/
structure PostRequest where
  pathInfo : Option JString
  contentType : Option JString
  body : List (Token Bytes)

/-- The parameters, with their defaults. -/
structure Parameters where
  object : Option JString := none
  maxDepth : Int := 0
  dataSizeLimit : Int := intMax
  slice : Option SliceInfo := none

/-- `unpackString`. -/
def unpackString (malformed : Bytes → JString) : Unpack Bytes Thrown JString := do
  let rawBytes ← unpackRawString
  return ofUtf8 malformed rawBytes

/-- The value of the parameter `name`, or the message of the error that is sent. -/
def unpackParameter (malformed : Bytes → JString) (maxHdf5NameLength : Int) (name : JString)
    (params : Parameters) : Unpack Bytes Thrown (Except JString Parameters) :=
  if name = lit "object" then do
    let object ← unpackLimitedString malformed maxHdf5NameLength
    return .ok { params with object := some object }
  else if name = lit "max_depth" then do
    let maxDepth ← unpackInt
    return .ok { params with maxDepth := maxDepth }
  else if name = lit "data_size_limit" then do
    let dataSizeLimit ← unpackLong
    return .ok { params with dataSizeLimit := dataSizeLimit }
  else if name = lit "slice" then do
    let slice ← SliceInfo.fromUnpacker malformed
    return .ok { params with slice := some slice }
  else return .error (lit "Unrecognized parameter: " ++ name)

/-- The entries of the map; `names` are those of the entries before. -/
def unpackParameters (malformed : Bytes → JString) (maxHdf5NameLength : Int) :
    Nat → List JString → Parameters → Unpack Bytes Thrown (Except JString Parameters)
  | 0, _, params => return .ok params
  | n + 1, names, params => do
    let name ← unpackString malformed
    if name ∈ names then return .error (lit "Duplicate parameter: " ++ name)
    else
      match ← unpackParameter malformed maxHdf5NameLength name params with
      | .error message => return .error message
      | .ok params => unpackParameters malformed maxHdf5NameLength n (name :: names) params

/-- The body of a request. -/
def unpackBody (malformed : Bytes → JString) (maxHdf5NameLength : Int) :
    Unpack Bytes Thrown (Except JString Parameters) := do
  let mapSize ← unpackMapHeader
  if 4 < mapSize then return .error (lit "Too many parameters in msgpack request")
  else unpackParameters malformed maxHdf5NameLength mapSize [] {}

/-- `getMessage`. -/
def ServletContext.getMessage (context : ServletContext) : Thrown → JString
  | .invalidSlice message => message
  | .io message => message
  | e => context.libraryMessage e

/-- `doPost`, up to the response. -/
def ServletContext.doPost (context : ServletContext) (request : PostRequest) :
    Except Refusal HDFStreamRequest :=
  if request.contentType ≠ some (lit "application/x-msgpack") then
    .error (.sent scUnsupportedMediaType
      (lit "POST requests must have content type application/x-msgpack"))
  else
    match unpackBody context.malformed context.maxHdf5NameLength request.body with
    | .error e =>
      .error (.sent scBadRequest (lit "Unable to decode request: " ++ context.getMessage e))
    | .ok (.error message, _) => .error (.sent scBadRequest message)
    | .ok (.ok params, _) =>
      context.construct request.pathInfo params.object params.maxDepth params.dataSizeLimit
        params.slice

end HdfStream.Webapp
