import DesignCompiler.Json.Reader
import DesignCompiler.Service.Environment

/-!
# `DesignCompiler.Service.Exchange`: a design file fetched from its host

A fetch is one call and one reply, and the network is a value here: `Reply` is what came back, an
incident or a response with a status and a body. `Exchange.fetch` gives the calls that were made,
none if the environment is not fit for one, and the JSON of the reply or what is wrong with it. Of a
response the status is looked at first, then the size, then the body: its encoding, and then the
JSON, in which no more than `Reply.levelLimit` lists and objects are inside one another.

`Trouble.message` is what the user of a tool reads when something went wrong.
-/

set_option autoImplicit false

namespace DesignCompiler

/-- A request to the host. -/
structure Call where
  url : Text
  headers : List (Text × Text)
  params : Json
  timeout : Binary64

/-- What can happen to a call before there is a response. -/
inductive Incident
  | timeout
  /-- A value that the transport does not accept, with its message. -/
  | value (message : Text)
  /-- A key that the transport does not find. -/
  | missingKey (key : Text)
  /-- Anything else, with its name and message. -/
  | other (label message : Text)
  deriving DecidableEq

/-- What came back from a call. Nothing is known about either kind, so a statement about all replies
is one about a host that answers as it likes. -/
inductive Reply
  | incident (incident : Incident)
  | response (status : Int) (body : Text)

/-- Why a tool has no result. Faults of the library are one of three reasons; the other two are met
on the way to the host. -/
inductive Trouble
  | fault (fault : Fault)
  | incident (incident : Incident)
  /-- A status that is no success. -/
  | status (code : Int)

/-- The wording of a status that is no success. -/
def Trouble.statusMessage (code : Int) : Text :=
  if code = 401 then
    "Invalid Figma API token. Check your FIGMA_ACCESS_TOKEN environment variable.".toList
  else if code = 403 then
    "Access denied. You don't have permission to view this file.".toList
  else if code = 404 then
    "File or page not found. Check the file key and page ID.".toList
  else if code = 413 then
    "Figma file too large. Select a single page to reduce the size.".toList
  else if code = 429 then
    "Rate limit exceeded. Please wait before making more requests.".toList
  else "Figma API returned status ".toList ++ Text.ofInt code

/-- The wording of an incident. -/
def Incident.message : Incident → Text
  | .timeout => "Request timed out. The file might be too large.".toList
  | .value message => message
  | .missingKey key => "KeyError: ".toList ++ Text.inline key
  | .other label message => label ++ ": ".toList ++ message

/-- What a fault of the given values says by itself, and any other fault behind the word for its
family. -/
def Fault.report (fault : Fault) : Text :=
  if fault.isValueFault then fault.message else fault.titled

/-- What the user of a tool reads. -/
def Trouble.message (trouble : Trouble) : Text :=
  "Error: ".toList ++ match trouble with
    | .fault cause => cause.report
    | .incident cause => cause.message
    | .status code => statusMessage code

namespace Reply

/-- Whether a status is a success. -/
def isSuccess (status : Int) : Bool := 200 ≤ status && status < 300

/-- The number of bytes of a text in UTF-8. -/
def byteSize (t : Text) : Nat := t.foldr (fun c size => c.utf8Size + size) 0

/-- How many lists and objects may be inside one another in a reply. -/
def levelLimit : Nat := 980

/-- The body of a reply that is a success. -/
def body : Reply → Except Trouble Text
  | .incident cause => .error (.incident cause)
  | .response status body => if isSuccess status then .ok body else .error (.status status)

/-- The trouble that a reply is, whatever its body holds. -/
def trouble? (reply : Reply) : Option Trouble :=
  match reply.body with
  | .ok _ => none
  | .error trouble => some trouble

/-- The fault of a text that could not be read. -/
def faultOf (whole : Text) (e : Json.ReadError) : Fault :=
  if e.problem.isDepth then .replyTooDeep (e.message whole) else .unreadableReply (e.message whole)

/-- The JSON that the bytes of a body write. -/
def readBody (body : Text) : Except Fault Json :=
  match Encoding.decode body with
  | .error e => .error (.unreadableReply e.message)
  | .ok t => (Json.read levelLimit t).mapError (faultOf t)

/-- The JSON of a reply of at most `limit` bytes. Status, size and body are looked at in this order,
and the first that is wrong is told. -/
def read (limit : Int) (reply : Reply) : Except Trouble Json := do
  let body ← reply.body
  -- The size counts the mark at the start of the body, which is no part of the JSON.
  if limit < byteSize body then .error (.fault (.replyTooLarge (byteSize body) limit))
  else (readBody body).mapError .fault

end Reply

/-- The host with its environment: all that a tool gets from outside besides its parameters. What
the host will answer and what the clock will show is part of it, so that a run is a function of the
exchange and the parameters; a statement about every exchange is one about every answer and every
duration. -/
structure Exchange where
  env : Environment
  /-- What comes back from a call. -/
  reply : Reply
  /-- The greatest number of bytes of a reply. -/
  limit : Int
  /-- The milliseconds that pass between the start of a tool and its layout tree, as the clock shows
  them. -/
  elapsed : Int

namespace Exchange

/-- The address under which the host answers. -/
def base : Text := "https://api.figma.com/v1".toList

/-- The call that asks for a file. -/
def call (env : Environment) (fileKey : Text) (params : Json) : Except Fault Call := do
  -- Without a credential nobody looks at the timeout.
  let credential ← env.credential
  let timeout ← env.seconds
  return ⟨base ++ "/files/".toList ++ fileKey, [credential.header], params, timeout⟩

/-- The calls made to fetch a file, and the file. There is no call if the environment is not fit for
one. -/
def fetch (exchange : Exchange) (fileKey : Text) (params : Json) :
    List Call × Except Trouble Json :=
  match call exchange.env fileKey params with
  | .ok made => ([made], exchange.reply.read exchange.limit)
  | .error fault => ([], .error (.fault fault))

end Exchange

end DesignCompiler
