import TriTip.Rpc.HttpMessage
import TriTip.Rpc.JsonRpc
import TriTip.Util.Base64

/-!
# JSON-RPC over HTTP

`ServiceConnection` reads requests off a stream as long as the connection is kept alive and nothing
is wrong with them; `CallRPC` posts one request and reads the reply. What is between the two is the
text that the one writes and the other reads.
-/

namespace TriTip

variable {ρ σ : Type}

def HTTP_BAD_REQUEST : Int32 := 400

def HTTP_UNAUTHORIZED : Int32 := 401

def HTTP_FORBIDDEN : Int32 := 403

def HTTP_NOT_FOUND : Int32 := 404

/-! ## Replies -/

/-- The words for a status. -/
def statusText (nStatus : Int32) : List UInt8 :=
  if nStatus = HTTP_OK then chars "OK"
  else if nStatus = HTTP_BAD_REQUEST then chars "Bad Request"
  else if nStatus = HTTP_FORBIDDEN then chars "Forbidden"
  else if nStatus = HTTP_NOT_FOUND then chars "Not Found"
  else if nStatus = HTTP_INTERNAL_SERVER_ERROR then chars "Internal Server Error"
  else []

/-- `%d` -/
def printedInt (n : Int) : List UInt8 :=
  if n < 0 then '-'.toUInt8 :: printed 10 n.natAbs else printed 10 n.natAbs

/-- The page for a request without the right password. -/
def unauthorizedReply (rfc1123Time : List UInt8) : List UInt8 :=
  chars "HTTP/1.0 401 Authorization Required\r\n" ++ (chars "Date: " ++ rfc1123Time ++ crlf) ++
    (chars "Server: bitcoin-json-rpc/" ++ FormatFullVersion ++ crlf) ++
    chars "WWW-Authenticate: Basic realm=\"jsonrpc\"\r\n" ++ chars "Content-Type: text/html\r\n" ++
    chars "Content-Length: 296\r\n" ++ crlf ++
    chars "<!DOCTYPE HTML PUBLIC \"-//W3C//DTD HTML 4.01 Transitional//EN\"\r\n" ++
    chars "\"http://www.w3.org/TR/1999/REC-html401-19991224/loose.dtd\">\r\n" ++
    chars "<HTML>\r\n<HEAD>\r\n<TITLE>Error</TITLE>\r\n" ++
    chars "<META HTTP-EQUIV='Content-Type' CONTENT='text/html; charset=ISO-8859-1'>\r\n" ++
    chars "</HEAD>\r\n<BODY><H1>401 Unauthorized.</H1></BODY>\r\n</HTML>\r\n"

def HTTPReply (rfc1123Time : List UInt8) (nStatus : Int32) (strMsg : List UInt8)
    (keepalive : Bool) : List UInt8 :=
  if nStatus = HTTP_UNAUTHORIZED then unauthorizedReply rfc1123Time
  else
    (chars "HTTP/1.1 " ++ printedInt nStatus.toInt ++ chars " " ++ statusText nStatus ++ crlf) ++
      (chars "Date: " ++ rfc1123Time ++ crlf) ++
      (chars "Connection: " ++ (if keepalive then chars "keep-alive" else chars "close") ++ crlf) ++
      (chars "Content-Length: " ++ printed 10 strMsg.length ++ crlf) ++
      chars "Content-Type: application/json\r\n" ++
      (chars "Server: bitcoin-json-rpc/" ++ FormatFullVersion ++ crlf) ++ crlf ++ c_str strMsg

/-- What is behind the first `HTTP/1.` of a line, as a number. -/
def ReadHTTPStatus (stream : IStream) : IStream × Int32 × Int32 :=
  let (stream, str) := getline stream []
  match str.splitOn ' '.toUInt8 with
  | _ :: word :: _ => (stream, readProto str, atoi (c_str word))
  | _ => (stream, 0, HTTP_INTERNAL_SERVER_ERROR)

def HTTPAuthorized (strRPCUserColonPass : List UInt8)
    (mapHeaders : KeyValue.Store (List UInt8) (List UInt8)) : Bool :=
  let strAuth := (mapHeaders (chars "authorization")).getD []
  if strAuth.take 6 ≠ chars "Basic " then false
  else (DecodeBase64 (c_str (trim (strAuth.drop 6)))).1 = strRPCUserColonPass

/-- `find_value(objError, "code").get_int()` -/
def errorCode (objError : Object ρ) : Option Int32 :=
  match find_value objError (chars "code") with
  | .int i _ => some i.toInt32
  | _ => none

/-- The status that goes with the code of an error. -/
def errorStatus (code : Int32) : Int32 :=
  if code.toInt = RPC_INVALID_REQUEST then HTTP_BAD_REQUEST
  else if code.toInt = RPC_METHOD_NOT_FOUND then HTTP_NOT_FOUND
  else HTTP_INTERNAL_SERVER_ERROR

/-- None if there is no code: the exception is not caught. -/
def ErrorReply (R : RPCServer σ ρ) (objError : Object ρ) (id : Value ρ) : Option (List UInt8) :=
  (errorCode objError).map fun code =>
    HTTPReply R.rfc1123Time (errorStatus code) (JSONRPCReply R.platform .null (.obj objError) id)
      false

/-! ## The server -/

/-- What a round of the server writes and leaves. There is no further one without a stream. -/
structure Served (σ : Type) where
  out : List UInt8
  state : σ
  uncaught : Bool
  next : Option IStream

/-- A request of which the message and its headers were read. -/
def serveMessage (R : RPCServer σ ρ) (http_uri : List UInt8) (message : HTTPMessage)
    (stream : IStream) (s : σ) : Served σ :=
  if http_uri ≠ chars "/" then ⟨HTTPReply R.rfc1123Time HTTP_NOT_FOUND [] false, s, false, none⟩
  -- Check authorization
  else if message.mapHeadersRet (chars "authorization") = none ∨
      HTTPAuthorized R.strRPCUserColonPass message.mapHeadersRet = false then
    ⟨HTTPReply R.rfc1123Time HTTP_UNAUTHORIZED [] false, s, false, none⟩
  else
    let fRun := message.mapHeadersRet (chars "connection") ≠ some (chars "close")
    match R.handle message.strMessageRet s with
    | (_, .ok strReply, s') =>
      ⟨HTTPReply R.rfc1123Time HTTP_OK strReply fRun, s', false, if fRun then some stream else none⟩
    | (id, .error e, s') =>
      match ErrorReply R (RPCServer.caught e) id with
      | some out => ⟨out, s', false, none⟩
      | none => ⟨[], s', true, none⟩

/-- One round of the loop. -/
def serveRequest (R : RPCServer σ ρ) (stream : IStream) (s : σ) : Served σ :=
  -- Read HTTP request line
  match ReadHTTPRequestLine stream with
  | (_, none) => ⟨[], s, false, none⟩
  | (stream, some line) =>
    -- Read HTTP message headers and body
    let (stream, message) := ReadHTTPMessage stream line.proto
    serveMessage R line.http_uri message stream s

theorem ReadHTTPHeaders_left_le (stream : IStream)
    (s : KeyValue.Store (List UInt8) (List UInt8) × Int32) :
    (ReadHTTPHeaders stream s).1.left ≤ stream.left := by
  induction hn : stream.left using Nat.strong_induction_on generalizing stream s with
  | _ n ih =>
    subst hn
    rw [ReadHTTPHeaders]
    simp only
    split
    · exact getline_left_le _ _
    · next h =>
      have hlt := getline_left_lt (eof_of_getline (not_or.1 h).1) []
      exact (ih _ hlt _ _ rfl).trans hlt.le

theorem read_left_le (stream : IStream) (n : Nat) : (stream.read n).1.left ≤ stream.left := by
  unfold IStream.read IStream.left
  cases h : stream.eof with
  | true => simp [h]
  | false =>
    simp only [Bool.false_eq_true, if_false]
    split
    · simp
    · simp

theorem ReadHTTPMessage_left_le (stream : IStream) (nProto : Int32) :
    (ReadHTTPMessage stream nProto).1.left ≤ stream.left := by
  have hle := ReadHTTPHeaders_left_le stream (fun _ => none, 0)
  unfold ReadHTTPMessage
  simp only
  split
  · exact hle
  · split
    · exact (read_left_le _ _).trans hle
    · exact hle

theorem next_serveMessage {R : RPCServer σ ρ} {http_uri : List UInt8} {message : HTTPMessage}
    {stream stream' : IStream} {s : σ}
    (h : (serveMessage R http_uri message stream s).next = some stream') : stream' = stream := by
  unfold serveMessage at h
  split at h
  · cases h
  · split at h
    · cases h
    · simp only at h
      split at h
      · split at h
        · exact (Option.some.inj h).symm
        · cases h
      · split at h <;> cases h

/-- A round takes its request line from the stream. -/
theorem serveRequest_left_lt {R : RPCServer σ ρ} {stream stream' : IStream} {s : σ}
    (h : (serveRequest R stream s).next = some stream') : stream'.left < stream.left := by
  have hline : ∀ line, (ReadHTTPRequestLine stream).2 = some line →
      (ReadHTTPRequestLine stream).1.left < stream.left := by
    intro line hline
    apply getline_left_lt
    apply eof_of_getline
    intro hnil
    rw [ReadHTTPRequestLine] at hline
    simp only [hnil] at hline
    cases hline
  unfold serveRequest at h
  split at h
  · cases h
  · next stream₁ line hread =>
    have hlt := hline line (by rw [hread])
    rw [hread] at hlt
    rw [next_serveMessage h]
    exact Nat.lt_of_le_of_lt (ReadHTTPMessage_left_le _ _) hlt

/-- What is written in all, the state afterwards, and whether an exception was not caught. -/
def ServiceConnection (R : RPCServer σ ρ) (stream : IStream) (s : σ) : List UInt8 × σ × Bool :=
  let served := serveRequest R stream s
  match h : served.next with
  | none => (served.out, served.state, served.uncaught)
  | some stream' =>
    have := serveRequest_left_lt h
    let (out, rest) := ServiceConnection R stream' served.state
    (served.out ++ out, rest)
termination_by stream.left

/-! ## The client -/

def Value_type.name : Value_type → List UInt8
  | .obj_type => chars "obj"
  | .array_type => chars "array"
  | .str_type => chars "str"
  | .bool_type => chars "bool"
  | .int_type => chars "int"
  | .real_type => chars "real"
  | .null_type => chars "null"

/-- The configuration of the client. -/
structure RPCClient (ρ : Type) where
  platform : Platform ρ
  rpcuser : List UInt8
  rpcpassword : List UInt8
  GetConfigFile : List UInt8

/-- The reply in what was read. -/
def readReply (P : Platform ρ) (strReply : List UInt8) : Except (List UInt8) (Object ρ) :=
  match read_string P strReply .null with
  | some (true, .obj reply) =>
    if reply.isEmpty then
      .error (chars "expected reply to have result, error and id properties")
    else .ok reply
  | some (true, valReply) =>
    .error (chars "value is type " ++ valReply.type.name ++ chars ", expected obj")
  | _ => .error (chars "couldn't parse reply from server")

/-- Statuses that come with a reply. -/
def repliesWith (nStatus : Int32) : Prop :=
  nStatus < 400 ∨ nStatus = HTTP_BAD_REQUEST ∨ nStatus = HTTP_NOT_FOUND ∨
    nStatus = HTTP_INTERNAL_SERVER_ERROR

instance (nStatus : Int32) : Decidable (repliesWith nStatus) :=
  inferInstanceAs (Decidable (_ ∨ _ ∨ _ ∨ _))

/-- What the client makes of the text that comes back. -/
def readResponse (P : Platform ρ) (stream : IStream) : Except (List UInt8) (Object ρ) :=
  let (stream, nProto, nStatus) := ReadHTTPStatus stream
  let (_, message) := ReadHTTPMessage stream nProto
  if nStatus = HTTP_UNAUTHORIZED then
    .error (chars "incorrect rpcuser or rpcpassword (authorization failed)")
  else if ¬repliesWith nStatus then
    .error (chars "server returned HTTP error " ++ printedInt nStatus.toInt)
  else if message.strMessageRet.isEmpty then .error (chars "no response from server")
  else readReply P message.strMessageRet

def authorization (C : RPCClient ρ) : List UInt8 × List UInt8 :=
  (chars "Authorization",
    chars "Basic " ++ EncodeBase64 (C.rpcuser ++ ':'.toUInt8 :: C.rpcpassword))

/-- The call, where `exchange` sends a text and returns what comes back. -/
def CallRPC (C : RPCClient ρ) (exchange : List UInt8 → List UInt8) (strMethod : List UInt8)
    (params : List (Value ρ)) : Except (List UInt8) (Object ρ) :=
  if C.rpcuser = [] ∧ C.rpcpassword = [] then
    .error (chars "You must set rpcpassword=<password> in the configuration file:\n" ++
      C.GetConfigFile ++
      chars "\nIf the file does not exist, create it with owner-readable-only file permissions.")
  else
    let strRequest := JSONRPCRequest C.platform strMethod params (.int 1 false)
    readResponse C.platform ⟨exchange (HTTPPost strRequest [authorization C]), false⟩

end TriTip
